import LineKeeper.File.Path
import Mathlib.Tactic.SplitIfs
import Mathlib.Tactic.ByContra

/-!
# Where paths begin

A path is a list of bytes, and the text of a path is read from them.  The first
byte of a text and its first character determine each other as far as ASCII is
concerned, so a text is an absolute path exactly if it begins with a slash.  No other
character takes such a byte, so a text can be taken apart at each of its slashes.

**Results.**
* `Text.Utf8.mem_encode_iff`, `Text.Utf8.head?_encode_eq_iff`: an ASCII character stands
  in a text, or at its front, exactly if its byte does.
* `Text.Utf8.isSome_decode?_append_cons_iff`: what stands around an ASCII byte of a text
  are texts.
* `Path.isAbsolute_ofString_iff`: which texts are absolute paths.
* `Path.expand_eq_self_iff`: which absolute paths an expansion leaves.
* `Path.isSome_decode?_join_iff`: when what is seen from a directory is a text.
* `Path.join_eq_join_root_iff`: an absolute path, and no other, leads to the same
  place from every directory.
-/

namespace LineKeeper

namespace Text.Utf8

/-- All bytes of a character beyond ASCII are beyond ASCII as well. -/
theorem lt_toNat_of_mem_utf8EncodeChar {c : Char} {b : UInt8} (hc : 127 < c.toNat)
    (hb : b ∈ String.utf8EncodeChar c) : 127 < b.toNat := by
  have hc' : ¬ c.val.toNat ≤ 127 := Nat.not_le_of_lt hc
  simp only [String.utf8EncodeChar, hc', if_false] at hb
  split_ifs at hb <;>
  · simp only [List.mem_cons, List.not_mem_nil, or_false] at hb
    rcases hb with rfl | rfl | hb <;> try rcases hb with rfl | rfl
    all_goals
      simp only [UInt8.toNat_ofNat', Nat.reducePow]
      omega

/-- An ASCII character is the only one in whose form its byte stands. -/
theorem mem_utf8EncodeChar_iff {c d : Char} (hd : d.toNat ≤ 127) :
    UInt8.ofNat d.toNat ∈ String.utf8EncodeChar c ↔ c = d := by
  have hbyte : (UInt8.ofNat d.toNat).toNat = d.toNat := by
    simp only [UInt8.toNat_ofNat', Nat.reducePow]
    omega
  constructor
  · intro h
    apply Char.toNat_inj.mp
    by_cases hc : c.toNat ≤ 127
    · rw [utf8EncodeChar_ascii hc, List.mem_singleton] at h
      have := congrArg UInt8.toNat h
      simp only [UInt8.toNat_ofNat', Nat.reducePow] at this
      omega
    · have := lt_toNat_of_mem_utf8EncodeChar (Nat.lt_of_not_le hc) h
      omega
  · rintro rfl
    rw [utf8EncodeChar_ascii hd]
    exact List.mem_singleton_self _

/-- An ASCII character stands in a text exactly if its byte does. -/
theorem mem_encode_iff {s : String} {d : Char} (hd : d.toNat ≤ 127) :
    UInt8.ofNat d.toNat ∈ encode s ↔ d ∈ s.toList := by
  rw [← String.ofList_toList (s := s), encode_ofList, String.toList_ofList, List.mem_flatMap]
  constructor
  · rintro ⟨c, hc, hbyte⟩
    exact (mem_utf8EncodeChar_iff hd).mp hbyte ▸ hc
  · intro h
    exact ⟨d, h, (mem_utf8EncodeChar_iff hd).mpr rfl⟩

theorem head?_encode_eq_iff {s : String} {d : Char} (hd : d.toNat ≤ 127) :
    (encode s).head? = some (UInt8.ofNat d.toNat) ↔ s.toList.head? = some d := by
  rw [← String.ofList_toList (s := s), encode_ofList, String.toList_ofList]
  cases s.toList with
  | nil => simp
  | cons c cs =>
      rw [List.flatMap_cons, List.head?_append, List.head?_cons, Option.some.injEq]
      constructor
      · intro h
        have hmem : UInt8.ofNat d.toNat ∈ String.utf8EncodeChar c := by
          cases hform : String.utf8EncodeChar c with
          | nil => exact absurd hform (by simp)
          | cons b bs =>
              rw [hform] at h
              cases h
              exact List.mem_cons_self
        exact (mem_utf8EncodeChar_iff hd).mp hmem
      · rintro rfl
        rw [utf8EncodeChar_ascii hd]
        rfl

/-- A text can be taken apart at any ASCII byte of its form. -/
theorem flatMap_eq_append_cons {d : Char} (hd : d.toNat ≤ 127) {cs : List Char}
    {front back : List UInt8}
    (h : cs.flatMap String.utf8EncodeChar = front ++ UInt8.ofNat d.toNat :: back) :
    ∃ left right, cs = left ++ d :: right ∧ left.flatMap String.utf8EncodeChar = front ∧
      right.flatMap String.utf8EncodeChar = back := by
  induction cs generalizing front with
  | nil => simp at h
  | cons c cs ih =>
      rw [List.flatMap_cons] at h
      rcases List.append_eq_append_iff.mp h with ⟨rest, rfl, hrest⟩ | ⟨rest, hc, hrest⟩
      · obtain ⟨left, right, rfl, rfl, rfl⟩ := ih hrest
        exact ⟨c :: left, right, rfl, rfl, rfl⟩
      · cases rest with
        | nil =>
            obtain ⟨left, right, rfl, hleft, rfl⟩ := @ih [] hrest.symm
            exact ⟨c :: left, right, rfl, by simpa [hleft] using hc, rfl⟩
        | cons b rest =>
            -- the byte belongs to `c`, which is then `d` and takes no other byte
            obtain ⟨rfl, rfl⟩ := List.cons_eq_cons.mp hrest
            have hcd : c = d := (mem_utf8EncodeChar_iff hd).mp (by simp [hc])
            rw [hcd, utf8EncodeChar_ascii hd] at hc
            obtain ⟨rfl, rfl⟩ : front = [] ∧ rest = [] := by
              have hlength := congrArg List.length hc
              simp only [List.length_append, List.length_cons, List.length_nil] at hlength
              constructor <;> apply List.eq_nil_of_length_eq_zero <;> omega
            exact ⟨[], cs, by rw [hcd]; rfl, rfl, rfl⟩

/-- Bytes on both sides of an ASCII byte are the form of a text exactly if either side is. -/
theorem isSome_decode?_append_cons_iff {d : Char} (hd : d.toNat ≤ 127) {front back : List UInt8} :
    (decode? (front ++ UInt8.ofNat d.toNat :: back)).isSome = true ↔
      (decode? front).isSome = true ∧ (decode? back).isSome = true := by
  simp only [Option.isSome_iff_exists]
  constructor
  · rintro ⟨s, hs⟩
    have hform := encode_of_decode? hs
    rw [← String.ofList_toList (s := s), encode_ofList] at hform
    obtain ⟨left, right, -, rfl, rfl⟩ := flatMap_eq_append_cons hd hform
    simp only [← encode_ofList, decode?_encode]
    exact ⟨⟨_, rfl⟩, ⟨_, rfl⟩⟩
  · rintro ⟨⟨left, hleft⟩, ⟨right, hright⟩⟩
    refine ⟨left ++ (String.ofList [d] ++ right), ?_⟩
    rw [← encode_of_decode? hleft, ← encode_of_decode? hright]
    have hbyte : encode (String.ofList [d]) = [UInt8.ofNat d.toNat] := by
      rw [encode_ofList, List.flatMap_singleton, utf8EncodeChar_ascii hd]
    rw [← decode?_encode (left ++ _), encode_append, encode_append, hbyte]
    rfl

end Text.Utf8

namespace Path

/-- A text is a path from the root exactly if it begins with a slash. -/
theorem isAbsolute_ofString_iff {s : String} :
    isAbsolute (ofString s) = true ↔ s.toList.head? = some '/' := by
  rw [isAbsolute, decide_eq_true_eq, ofString]
  exact Text.Utf8.head?_encode_eq_iff (d := '/') (by decide)

/-- An absolute path is its own expansion exactly if it is the path of a text. -/
theorem expand_eq_self_iff {home : Option Path} {p : Path} (h : p.isAbsolute = true) :
    p.expand home = p ↔ (Text.Utf8.decode? p).isSome = true := by
  constructor
  · intro heq
    rw [← heq, expand, ofString, Text.Utf8.decode?_encode]
    rfl
  · intro htext
    obtain ⟨s, hs⟩ := Option.isSome_iff_exists.mp htext
    obtain rfl : ofString s = p := Text.Utf8.encode_of_decode? hs
    apply expand_of_no_tilde
    rw [isAbsolute_ofString_iff.mp h]
    simp

/-- A slash divides the path of a text into the paths of two. -/
theorem isSome_decode?_append_slash_iff {front back : Path} :
    (Text.Utf8.decode? (front ++ slash :: back)).isSome = true ↔
      (Text.Utf8.decode? front).isSome = true ∧ (Text.Utf8.decode? back).isSome = true :=
  Text.Utf8.isSome_decode?_append_cons_iff (d := '/') (by decide)

/-- What is seen from a directory is the path of a text exactly if the directory is, unless it does
not begin there. -/
theorem isSome_decode?_join_iff {dir p : Path} (hdir : dir ≠ [])
    (hp : (Text.Utf8.decode? p).isSome = true) :
    (Text.Utf8.decode? (dir.join p)).isSome = true ↔
      p.isAbsolute = true ∨ (Text.Utf8.decode? dir).isSome = true := by
  cases habs : p.isAbsolute with
  | true => simp [join_of_isAbsolute habs, hp]
  | false =>
      by_cases hlast : dir.getLast? = some slash
      · obtain ⟨front, rfl⟩ := List.getLast?_eq_some_iff.mp hlast
        have hempty : (Text.Utf8.decode? []).isSome = true := by
          rw [show ([] : Path) = Text.Utf8.encode "" from rfl, Text.Utf8.decode?_encode]
          rfl
        have hjoin : join (front ++ [slash]) p = front ++ slash :: p := by
          simp [join, habs]
        rw [hjoin, isSome_decode?_append_slash_iff, isSome_decode?_append_slash_iff]
        simp [hp, hempty]
      · have hjoin : dir.join p = dir ++ slash :: p := by
          simp [join, habs, hdir, hlast]
        rw [hjoin, isSome_decode?_append_slash_iff]
        simp [hp]

/-- A path leads to one place, from whatever directory it is followed, exactly if it begins at the
root. -/
theorem join_eq_join_root_iff {p : Path} :
    (∀ dir, join dir p = join [slash] p) ↔ isAbsolute p = true := by
  constructor
  · intro h
    by_contra hrel
    rw [Bool.not_eq_true] at hrel
    have hlen := congrArg List.length (h [0x61])
    simp [join, hrel, slash] at hlen
  · intro h dir
    rw [join_of_isAbsolute h, join_of_isAbsolute h]

end Path
end LineKeeper
