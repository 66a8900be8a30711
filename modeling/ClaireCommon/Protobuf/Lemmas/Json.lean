import ClaireCommon.Lib.UnorderedMap
import ClaireCommon.Protobuf.Impl.ProtobufIO
import ClaireCommon.Strings.Lemmas.UriEscape

/-!
This module contains the JSON values that `SerializeToJson` makes, and what is left of a string in one.
-/

namespace Claire
namespace Protobuf

namespace Json

theorem intactMembers_iff {members : List (List UInt8 × Json)}
    : intactMembers members ↔ ∀ member ∈ members, member.2.intact := by
  induction members with
  | nil => simp [intactMembers]
  | cons member members ih => simp [intactMembers, ih]

theorem depth_le_depthOfMembers {members : List (List UInt8 × Json)} {member : List UInt8 × Json}
    (h : member ∈ members) : member.2.depth ≤ depthOfMembers members := by
  induction members with
  | nil => contradiction
  | cons first members ih =>
    rw [depthOfMembers]
    cases List.mem_cons.mp h with
    | inl heq =>
      rw [heq]
      apply Nat.le_max_left
    | inr hmem => exact Nat.le_trans (ih hmem) (Nat.le_max_right _ _)

theorem depth_le_of_findMember {members : List (List UInt8 × Json)} {name : CString} {json : Json}
    (h : findMember (.object members) name = .ok (some json)) : json.depth ≤ depthOfMembers members := by
  injection h with h
  apply depth_le_depthOfMembers (UnorderedMap.mem_of_lookup h)

theorem depth_le_depthOfItems {items : List Json} {item : Json} (h : item ∈ items)
    : item.depth ≤ depthOfItems items := by
  induction items with
  | nil => contradiction
  | cons first items ih =>
    rw [depthOfItems]
    cases List.mem_cons.mp h with
    | inl heq =>
      rw [heq]
      apply Nat.le_max_left
    | inr hmem => exact Nat.le_trans (ih hmem) (Nat.le_max_right _ _)

@[simp]
theorem getInt_ofInt32 (n : Int32) : (number (.ofInt32 n)).getInt = some n := by
  have := n.le_toInt
  have := n.toInt_lt
  simp [getInt, JsonInteger.ofInt32]
  omega

@[simp]
theorem getUint_ofUInt32 (n : UInt32) : (number (.ofUInt32 n)).getUint = some n := by
  have := n.toNat_lt
  simp [getUint, JsonInteger.ofUInt32]
  omega

@[simp]
theorem getInt64_ofInt64 (n : Int64) : (number (.ofInt64 n)).getInt64 = some n := by
  have := n.toInt_lt
  simp [getInt64, JsonInteger.ofInt64]
  omega

@[simp]
theorem getUint64_ofUInt64 (n : UInt64) : (number (.ofUInt64 n)).getUint64 = some n := by
  simp [getUint64, JsonInteger.ofUInt64]

end Json

theorem withUnsignedLength_eq_self {s : List UInt8}
    : withUnsignedLength s = s ↔ s.length < 2 ^ 32 := by
  unfold withUnsignedLength
  rw [List.take_eq_self_iff]
  omega

theorem cString_withUnsignedLength_eq {s : List UInt8}
    : cString (withUnsignedLength s) = s ↔ s.length < 2 ^ 32 ∧ 0 ∉ s := by
  constructor
  . intro h
    have hle : s.length ≤ (withUnsignedLength s).length := by
      have := (List.takeWhile_prefix (l := withUnsignedLength s) (· ≠ 0)).length_le
      unfold cString at h
      rw [h] at this
      exact this
    have hself : withUnsignedLength s = s := by
      unfold withUnsignedLength at hle ⊢
      rw [List.length_take] at hle
      apply List.take_of_length_le
      omega
    rw [hself] at h
    exact ⟨withUnsignedLength_eq_self.mp hself, cString_eq_self.mp h⟩
  . intro ⟨hlt, hnonzero⟩
    rw [withUnsignedLength_eq_self.mpr hlt, cString_eq_self.mpr hnonzero]

theorem uriUnescape_withUnsignedLength_eq {s : List UInt8}
    : uriUnescape (cString (withUnsignedLength (uriEscape s .all))) .all = .ok s
        ↔ (uriEscape s .all).length < 2 ^ 32 := by
  have hok : uriUnescape (uriEscape s .all) .all = .ok s := by
    unfold uriUnescape
    rw [uriUnescapeTo_uriEscape]
    rfl
  have hcString : cString (withUnsignedLength (uriEscape s .all))
      = withUnsignedLength (uriEscape s .all) := by
    rw [cString_eq_self]
    intro hzero
    exact zero_not_mem_uriEscape s (List.mem_of_mem_take hzero)
  rw [hcString]
  constructor
  . intro h
    by_contra hge
    exact uriUnescape_take_ne hok (by omega) h
  . intro hlt
    rw [withUnsignedLength_eq_self.mpr hlt, hok]

end Protobuf
end Claire
