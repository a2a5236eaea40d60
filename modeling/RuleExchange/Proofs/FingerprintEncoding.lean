import Mathlib.Algebra.GroupWithZero.Nat
import Mathlib.Algebra.Order.BigOperators.Group.List
import Mathlib.Algebra.Order.Group.Nat
import RuleExchange.Engine.Request

/-! The encoding behind fingerprints. Texts are led by their lengths, so an encoding can be
taken apart again: two requests with the same encoding have the same content, the same
platforms up to case and surrounding blanks, and the same options as far as they matter to
the result. Texts are shorter than 2^64 octets. -/

namespace RuleExchange

namespace Digest

theorem utf8_inj {s t : String} : utf8 s = utf8 t ↔ s = t := by
  constructor
  · intro h
    apply String.toByteArray_inj.mp
    exact ByteArray.ext (Array.toList_inj.mp h)
  · exact fun h => h ▸ rfl

@[simp] theorem length_utf8 (s : String) : (utf8 s).length = s.utf8ByteSize := rfl

@[simp] theorem length_lengthOctets (n : Nat) : (lengthOctets n).length = 8 := by
  simp [lengthOctets]

theorem octet_inj {m n : Nat} (h : UInt8.ofNat (m % 256) = UInt8.ofNat (n % 256)) :
    m % 256 = n % 256 := by
  have := congrArg UInt8.toNat h
  simpa using this

/-- Numbers of `k` octets are equal when all their octets are. -/
theorem eq_of_octets {k m n : Nat} (hm : m < 256 ^ k) (hn : n < 256 ^ k)
    (h : ∀ j < k, m / 256 ^ j % 256 = n / 256 ^ j % 256) : m = n := by
  induction k generalizing m n with
  | zero =>
    simp only [Nat.pow_zero] at hm hn
    omega
  | succ k ih =>
    rw [Nat.pow_succ'] at hm hn
    have hq : m / 256 = n / 256 := by
      apply ih (Nat.div_lt_of_lt_mul hm) (Nat.div_lt_of_lt_mul hn)
      intro j hj
      rw [Nat.div_div_eq_div_mul, Nat.div_div_eq_div_mul, ← Nat.pow_succ']
      exact h (j + 1) (by omega)
    have h0 : m % 256 = n % 256 := by simpa using h 0 (by omega)
    omega

theorem lengthOctets_inj {m n : Nat} (hm : m < 2 ^ 64) (hn : n < 2 ^ 64)
    (h : lengthOctets m = lengthOctets n) : m = n := by
  apply eq_of_octets (k := 8) hm hn
  intro j hj
  have hi := List.map_inj_left.mp h (7 - j) (List.mem_range.mpr (by omega))
  rw [show 7 - (7 - j) = j by omega] at hi
  exact octet_inj hi

end Digest

namespace Fingerprint

/-- A text can be cut off the front of an encoding. -/
theorem textField_append_inj {s t : String} {xs ys : List UInt8}
    (hs : s.utf8ByteSize < 2 ^ 64) (ht : t.utf8ByteSize < 2 ^ 64)
    (h : textField s ++ xs = textField t ++ ys) : s = t ∧ xs = ys := by
  simp only [textField, List.append_assoc] at h
  obtain ⟨hlen, hrest⟩ := List.append_inj h (by simp)
  have hsize := Digest.lengthOctets_inj (by simpa using hs) (by simpa using ht) hlen
  obtain ⟨htext, hxs⟩ := List.append_inj hrest hsize
  exact ⟨Digest.utf8_inj.mp htext, hxs⟩

theorem optionalField_append_inj {s t : Option String} {xs ys : List UInt8}
    (hs : ∀ v, s = some v → v.utf8ByteSize < 2 ^ 64)
    (ht : ∀ v, t = some v → v.utf8ByteSize < 2 ^ 64)
    (h : optionalField s ++ xs = optionalField t ++ ys) : s = t ∧ xs = ys := by
  cases s with
  | none =>
    cases t with
    | none => exact ⟨rfl, by simpa [optionalField] using h⟩
    | some v => simp [optionalField] at h
  | some u =>
    cases t with
    | none => simp [optionalField] at h
    | some v =>
      simp only [optionalField, List.cons_append, List.cons.injEq, true_and] at h
      obtain ⟨huv, hxs⟩ := textField_append_inj (hs u rfl) (ht v rfl) h
      exact ⟨huv ▸ rfl, hxs⟩

theorem flagOctet_inj {a b : Bool} (h : flagOctet a = flagOctet b) : a = b := by
  cases a <;> cases b <;> simp_all [flagOctet]

/-! ### Names of platforms -/

theorem size_utf8Encode (l : List Char) :
    l.utf8Encode.size = (l.map Char.utf8Size).sum := by
  induction l with
  | nil => simp
  | cons c l ih =>
    rw [List.utf8Encode_cons, ByteArray.size_append, ih, List.utf8Encode_singleton,
      List.size_toByteArray, String.length_utf8EncodeChar, List.map_cons, List.sum_cons]

theorem utf8ByteSize_eq (s : String) : s.utf8ByteSize = (s.toList.map Char.utf8Size).sum := by
  rw [← size_utf8Encode, String.utf8Encode_toList]
  rfl

theorem utf8Size_toLower (c : Char) : c.toLower.utf8Size = c.utf8Size := by
  unfold Char.toLower
  split
  · rename_i h
    have hc : c.utf8Size = 1 := Char.utf8Size_eq_one_iff.mpr (UInt32.le_trans h.2 (by decide))
    rw [hc]
    apply Char.utf8Size_eq_one_iff.mpr
    obtain ⟨-, h⟩ := h
    rw [UInt32.le_iff_toNat_le] at h ⊢
    rw [UInt32.toNat_add]
    have ha : ('a'.val - 'A'.val).toNat = 32 := by decide
    have hz : 'Z'.val.toNat = 90 := by decide
    have hb : (127 : UInt32).toNat = 127 := by decide
    omega
  · rfl

theorem trim_sublist (s : List Char) : (Text.trim s).Sublist s := by
  have h : (Text.trimStart s).Sublist s := List.dropWhile_sublist _
  refine List.Sublist.trans ?_ h
  rw [← List.reverse_sublist]
  simpa [Text.trim, Text.trimEnd, Text.dropEndWhile] using List.dropWhile_sublist _

theorem utf8ByteSize_platformName_le (s : String) :
    (platformName s).utf8ByteSize ≤ s.utf8ByteSize := by
  have hlow : (Text.asciiLower (Text.trim s.toList)).map Char.utf8Size =
      (Text.trim s.toList).map Char.utf8Size := by
    simp [Text.asciiLower, Function.comp_def, utf8Size_toLower]
  rw [utf8ByteSize_eq, utf8ByteSize_eq s, platformName, String.toList_ofList, hlow]
  exact ((trim_sublist s.toList).map Char.utf8Size).sum_le_sum (fun _ _ => Nat.zero_le _)

end Fingerprint

/-- Every text is shorter than 2^64 octets. -/
structure Request.Sized (r : Request) : Prop where
  content : r.content.utf8ByteSize < 2 ^ 64
  source : r.source.utf8ByteSize < 2 ^ 64
  target : r.target.utf8ByteSize < 2 ^ 64
  sourceVersion : ∀ v, r.options.sourceVersion = some v → v.utf8ByteSize < 2 ^ 64
  targetVersion : ∀ v, r.options.targetVersion = some v → v.utf8ByteSize < 2 ^ 64

namespace Fingerprint

/-- The parts of a request that enter its fingerprint are the same in both. -/
structure Alike (r q : Request) : Prop where
  content : r.content = q.content
  source : platformName r.source = platformName q.source
  target : platformName r.target = platformName q.target
  sourceVersion : r.options.sourceVersion = q.options.sourceVersion
  level : r.options.level = q.options.level
  preserveComments : r.options.preserveComments = q.options.preserveComments
  strict : r.options.strict = q.options.strict
  targetVersion : r.options.targetVersion = q.options.targetVersion

theorem encode_eq_of_alike {r q : Request} (h : Alike r q) : encode r = encode q := by
  simp only [encode, h.content, h.source, h.target, h.sourceVersion, h.level,
    h.preserveComments, h.strict, h.targetVersion]

theorem ofRequest_eq_of_alike {r q : Request} (h : Alike r q) : ofRequest r = ofRequest q := by
  rw [ofRequest, ofRequest, encode_eq_of_alike h]

theorem alike_of_encode_eq {r q : Request} (hr : r.Sized) (hq : q.Sized)
    (hrl : r.options.level < 256) (hql : q.options.level < 256) (h : encode r = encode q) :
    Alike r q := by
  simp only [encode, List.append_assoc] at h
  obtain ⟨hcontent, h⟩ := textField_append_inj hr.content hq.content h
  obtain ⟨hsource, h⟩ := textField_append_inj
    (Nat.lt_of_le_of_lt (utf8ByteSize_platformName_le _) hr.source)
    (Nat.lt_of_le_of_lt (utf8ByteSize_platformName_le _) hq.source) h
  obtain ⟨htarget, h⟩ := textField_append_inj
    (Nat.lt_of_le_of_lt (utf8ByteSize_platformName_le _) hr.target)
    (Nat.lt_of_le_of_lt (utf8ByteSize_platformName_le _) hq.target) h
  obtain ⟨hsv, h⟩ := optionalField_append_inj hr.sourceVersion hq.sourceVersion h
  simp only [List.cons_append, List.nil_append, List.cons.injEq] at h
  obtain ⟨hlevel, hcomments, hstrict, h⟩ := h
  have hlast : optionalField r.options.targetVersion ++ [] =
      optionalField q.options.targetVersion ++ [] := by rw [h]
  refine ⟨hcontent, hsource, htarget, hsv, ?_, flagOctet_inj hcomments, flagOctet_inj hstrict,
    (optionalField_append_inj hr.targetVersion hq.targetVersion hlast).1⟩
  have := congrArg UInt8.toNat hlevel
  simpa [Nat.mod_eq_of_lt hrl, Nat.mod_eq_of_lt hql] using this

/-- Two requests with texts of fewer than 2^64 octets and levels of one octet have the same
encoding exactly when everything that enters it is the same in both. -/
theorem same_encoding_iff_alike {r q : Request} (hr : r.Sized) (hq : q.Sized)
    (hrl : r.options.level < 256) (hql : q.options.level < 256) :
    encode r = encode q ↔ Alike r q :=
  ⟨alike_of_encode_eq hr hq hrl hql, encode_eq_of_alike⟩

/-- A content that ends like the length and the text of a source does not pass for a shorter
content before that source, while blanks, capitals and time limits make no difference. -/
theorem imitated_source_is_told_apart :
    let plain : Request := ⟨"a", "b", "c", {}⟩
    let imitation : Request := ⟨"a\x00\x00\x00\x00\x00\x00\x00\x01b", "", "c", {}⟩
    let respelt : Request := ⟨"a", " B", "C\n", { timeoutMs := 1, retryAttempts := 9 }⟩
    encode plain ≠ encode imitation ∧ encode plain = encode respelt := by
  intro plain imitation respelt
  have hplain : plain.Sized := ⟨by decide, by decide, by decide, nofun, nofun⟩
  have himitation : imitation.Sized := ⟨by decide, by decide, by decide, nofun, nofun⟩
  have hrespelt : respelt.Sized := ⟨by decide, by decide, by decide, nofun, nofun⟩
  constructor
  · intro h
    have halike := (same_encoding_iff_alike hplain himitation (by decide) (by decide)).mp h
    exact absurd halike.content (by decide)
  · refine (same_encoding_iff_alike hplain hrespelt (by decide) (by decide)).mpr ?_
    constructor <;> decide

end Fingerprint

end RuleExchange
