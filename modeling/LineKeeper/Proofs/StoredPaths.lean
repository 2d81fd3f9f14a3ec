import LineKeeper.File.Log
import LineKeeper.Proofs.Paths

/-!
# What is stored for the path of a log

The path of a log is any bytes, but a tilde is looked for in its text, and so the text is what
is stored.  Where the bytes are no text, what cannot be read was replaced on the way.  An ASCII
byte is never part of what cannot be read: the text of a path begins with a slash, or with a
tilde, exactly if the path does.

**Results.**
* `Text.Utf8.encode_lossy_eq_iff`: nothing is replaced in texts, and in texts only.
* `Text.Utf8.lossy_cons`: an ASCII byte at the front is read for itself.
* `LogFile.new_keeps`: what is stored for a path, and when it is the path itself, or the home
  directory with what follows the tilde.
-/

namespace LineKeeper

namespace Text.Utf8

variable {bs : List UInt8} {c d : Char}

theorem encode_lossy_eq_iff : encode (lossy bs) = bs ↔ (decode? bs).isSome = true := by
  constructor
  · intro h
    rw [← h, decode?_encode]
    rfl
  · intro h
    obtain ⟨s, hs⟩ := Option.isSome_iff_exists.mp h
    simp only [lossy, hs]
    exact encode_of_decode? hs

theorem encode_singleton (hd : d.toNat ≤ 127) :
    encode (String.ofList [d]) = [UInt8.ofNat d.toNat] := by
  rw [encode_ofList, List.flatMap_singleton, utf8EncodeChar_ascii hd]

/-- An ASCII byte is a character by itself. -/
theorem front?_cons (hd : d.toNat ≤ 127) (bs : List UInt8) :
    front? (UInt8.ofNat d.toNat :: bs) = some d := by
  have hbytes : (⟨((UInt8.ofNat d.toNat :: bs).take 4).toArray⟩ : ByteArray) =
      (String.utf8EncodeChar d).toByteArray ++ ⟨(bs.take 3).toArray⟩ := by
    rw [utf8EncodeChar_ascii hd]
    apply ByteArray.ext
    simp
  rw [front?, hbytes, ByteArray.utf8DecodeChar?_utf8EncodeChar_append]

/-- The character at the front of some bytes is an ASCII character exactly if the first of them is
its byte. -/
theorem front?_eq_some_iff (hd : d.toNat ≤ 127) :
    front? bs = some d ↔ bs.head? = some (UInt8.ofNat d.toNat) := by
  constructor
  · intro h
    obtain ⟨rest, hrest⟩ := ByteArray.exists_of_utf8DecodeChar?_eq_some h
    have hlist := congrArg (fun a : ByteArray => a.data.toList) hrest
    simp only [utf8EncodeChar_ascii hd, ByteArray.data_append, Array.toList_append] at hlist
    cases bs with
    | nil => simp at hlist
    | cons b bs => simpa using congrArg List.head? hlist
  · intro h
    cases bs with
    | nil => cases h
    | cons b bs =>
        cases h
        exact front?_cons hd bs

/-- An ASCII character stands at the front of what is read exactly if its byte does. -/
theorem head?_replaceBroken_eq_iff (hd : d.toNat ≤ 127) :
    (replaceBroken bs).head? = some d ↔ bs.head? = some (UInt8.ofNat d.toNat) := by
  cases bs with
  | nil => simp [replaceBroken]
  | cons b bs =>
      rw [← front?_eq_some_iff hd, replaceBroken]
      cases hfront : front? (b :: bs) with
      | some c => simp
      | none =>
          have hne : '\uFFFD' ≠ d := by
            rintro rfl
            exact absurd hd (by decide)
          simp [hne]

theorem head?_lossy_eq_iff (hd : d.toNat ≤ 127) :
    (lossy bs).toList.head? = some d ↔ bs.head? = some (UInt8.ofNat d.toNat) := by
  cases htext : decode? bs with
  | some s =>
      have hbytes := encode_of_decode? htext
      simp only [lossy, htext]
      rw [← hbytes, head?_encode_eq_iff hd]
  | none =>
      simp only [lossy, htext, String.toList_ofList]
      exact head?_replaceBroken_eq_iff hd

/-- An ASCII byte at the front is read for itself, and the rest as if it stood alone. -/
theorem lossy_cons (hd : d.toNat ≤ 127) (bs : List UInt8) :
    lossy (UInt8.ofNat d.toNat :: bs) = String.ofList [d] ++ lossy bs := by
  have htexts := @isSome_decode?_append_cons_iff d hd [] bs
  have hempty : (decode? []).isSome = true := by
    rw [show ([] : List UInt8) = encode "" from rfl, decode?_encode]
    rfl
  simp only [List.nil_append, hempty, true_and] at htexts
  cases hrest : (decode? bs).isSome with
  | true =>
      apply encode_injective
      rw [encode_append, encode_singleton hd, encode_lossy_eq_iff.mpr hrest,
        encode_lossy_eq_iff.mpr (htexts.mpr hrest)]
      rfl
  | false =>
      have hall : decode? (UInt8.ofNat d.toNat :: bs) = none := by
        rw [← Option.not_isSome_iff_eq_none, htexts, hrest]
        simp
      have hnone : decode? bs = none := by
        rw [← Option.not_isSome_iff_eq_none, hrest]
        simp
      have hsize : d.utf8Size = 1 := by
        rw [← String.length_utf8EncodeChar, utf8EncodeChar_ascii hd]
        rfl
      simp only [lossy, hall, hnone]
      rw [replaceBroken, front?_cons hd]
      simp [hsize]

end Text.Utf8

namespace Path

open Text.Utf8 (decode?)

variable {home : Option Path} {h p rest cwd : Path}

/-- The byte of a tilde. -/
def tilde : UInt8 := 0x7E

/-- The path of what is shown of a path. -/
def shown (p : Path) : Path :=
  ofString p.display

theorem shown_eq_self_iff : p.shown = p ↔ (decode? p).isSome = true :=
  Text.Utf8.encode_lossy_eq_iff

theorem isSome_decode?_shown (p : Path) : (decode? p.shown).isSome = true := by
  rw [shown, ofString, Text.Utf8.decode?_encode]
  rfl

/-- What is shown of a path begins at the root exactly if the path does. -/
theorem isAbsolute_shown (p : Path) : p.shown.isAbsolute = p.isAbsolute := by
  rw [Bool.eq_iff_iff, shown, isAbsolute_ofString_iff, isAbsolute, decide_eq_true_eq]
  exact Text.Utf8.head?_lossy_eq_iff (d := '/') (by decide)

/-- Without a tilde at its front a path is expanded to what is shown of it. -/
theorem expand_eq_shown (hp : p.head? ≠ some tilde) : p.expand home = p.shown := by
  have htext : p.display.toList.head? ≠ some '~' := fun htilde =>
    hp ((Text.Utf8.head?_lossy_eq_iff (d := '~') (by decide)).mp htilde)
  rw [expand, expandText_of_no_tilde htext]
  rfl

/-- What may follow a tilde that means the home directory. -/
def EndsTilde (rest : Path) : Prop :=
  rest = [] ∨ rest.head? = some slash

theorem display_tilde (rest : Path) : display (tilde :: rest) = "~" ++ rest.display :=
  Text.Utf8.lossy_cons (d := '~') (by decide) rest

/-- A tilde at the front is replaced by a home directory that is a text. -/
theorem expand_tilde (hrest : EndsTilde rest) (htext : (decode? h).isSome = true) :
    expand (some h) (tilde :: rest) = h ++ rest.shown := by
  obtain ⟨s, hs⟩ := Option.isSome_iff_exists.mp htext
  have hends : (rest.display.toList.isEmpty || rest.display.toList.head? = some '/') = true := by
    rcases hrest with rfl | hslash
    · decide +kernel
    · have hhead := (Text.Utf8.head?_lossy_eq_iff (d := '/') (by decide)).mpr hslash
      simp only [display, hhead, decide_true, Bool.or_true]
  have hexpand : expandText (some h) ("~" ++ rest.display) = s ++ rest.display := by
    have hlist : ("~" ++ rest.display).toList = '~' :: rest.display.toList := by simp
    simp only [expandText, hlist, hends, Option.bind_some, hs, if_true, String.ofList_toList]
  rw [expand, display_tilde, hexpand, ofString, Text.Utf8.encode_append,
    Text.Utf8.encode_of_decode? hs]
  rfl

/-- A home directory that is no text replaces nothing. -/
theorem expand_of_unread_home (htext : decode? h = none) (p : Path) :
    expand (some h) p = p.shown := by
  have hexpand : expandText (some h) p.display = p.display := by
    unfold expandText
    split
    · split
      · simp [htext]
      · rfl
    · rfl
  rw [expand, hexpand]
  rfl

/-- From one directory two paths that both begin there, or both do not, lead to different
places. -/
theorem join_inj {p q : Path} (habs : p.isAbsolute = q.isAbsolute) :
    join cwd p = join cwd q ↔ p = q := by
  constructor
  · intro heq
    simp only [join, habs] at heq
    split at heq
    · exact heq
    · split at heq
      · exact List.append_cancel_left heq
      · exact (List.cons_eq_cons.mp (List.append_cancel_left heq)).2
  · rintro rfl
    rfl

end Path

namespace LogFile

open Text.Utf8 (decode?)

variable {home : Option Path} {cwd path h rest : Path}

/-- What is stored for a path.  A path without a tilde at its front is kept, from the root or from
the directory it was named in, exactly if it is a text; otherwise what is shown of it is stored.
For one whose tilde means the home directory `h`, this directory is stored with what follows the
tilde, exactly if both are texts. -/
structure Keeps (home : Option Path) (cwd path : Path) : Prop where
  shown : path.head? ≠ some Path.tilde → (new home cwd path).path = cwd.join path.shown
  same : path.shown.isAbsolute = path.isAbsolute
  absolute : path.isAbsolute = true →
    ((new home cwd path).path = path ↔ (decode? path).isSome = true)
  relative : path.isAbsolute = false → path.head? ≠ some Path.tilde →
    ((new home cwd path).path = cwd.join path ↔ (decode? path).isSome = true)
  atHome : ∀ h rest : Path, path = Path.tilde :: rest → Path.EndsTilde rest → home = some h →
    h.isAbsolute = true → (decode? h).isSome = true →
    (new home cwd path).path = h ++ rest.shown ∧
      ((new home cwd path).path = h ++ rest ↔ (decode? rest).isSome = true)
  unreadHome : ∀ h rest : Path, path = Path.tilde :: rest → Path.EndsTilde rest → home = some h →
    decode? h = none →
    (new home cwd path).path = cwd.join path.shown ∧
      ((decode? cwd).isSome = true → (new home cwd path).path ≠ h ++ rest)

/-- Without a tilde at its front a path is kept exactly if it is a text. -/
theorem path_new_eq_join_iff (home : Option Path) (cwd : Path)
    (hpath : path.head? ≠ some Path.tilde) :
    (new home cwd path).path = cwd.join path ↔ (decode? path).isSome = true := by
  rw [new, Path.expand_eq_shown hpath, Path.join_inj path.isAbsolute_shown,
    Path.shown_eq_self_iff]

/-- What follows a tilde divides a path into two texts, if the path is one. -/
theorem isSome_decode?_append_iff (hrest : Path.EndsTilde rest) :
    (decode? (h ++ rest)).isSome = true ↔
      (decode? h).isSome = true ∧ (decode? rest).isSome = true := by
  rcases hrest with rfl | hslash
  · have hempty : (decode? []).isSome = true := by decide +kernel
    simp [hempty]
  · obtain ⟨back, rfl⟩ := List.head?_eq_some_iff.mp hslash
    have hback := @Path.isSome_decode?_append_slash_iff [] back
    have hempty : (decode? []).isSome = true := by decide +kernel
    simp only [List.nil_append, hempty, true_and] at hback
    rw [Path.isSome_decode?_append_slash_iff, hback]

/-- **A path is stored byte for byte**, as it was named or from the home directory on, exactly if
its bytes are those of a text; otherwise what is shown of it is stored. -/
theorem new_keeps (home : Option Path) (cwd path : Path) : Keeps home cwd path := by
  have habsolute : path.isAbsolute = true → path.head? ≠ some Path.tilde := by
    intro habs htilde
    rw [Path.isAbsolute, decide_eq_true_eq, htilde] at habs
    exact absurd habs (by decide)
  constructor
  case shown =>
    intro hpath
    rw [new, Path.expand_eq_shown hpath]
  case same => exact path.isAbsolute_shown
  case absolute =>
    intro habs
    rw [← path_new_eq_join_iff home cwd (habsolute habs),
      Path.join_of_isAbsolute habs]
  case relative => exact fun _ hpath => path_new_eq_join_iff home cwd hpath
  case atHome =>
    rintro h rest rfl hrest rfl habs htext
    have hstored : (new (some h) cwd (Path.tilde :: rest)).path = h ++ rest.shown := by
      rw [new, Path.expand_tilde hrest htext]
      apply Path.join_of_isAbsolute
      rw [Path.isAbsolute, decide_eq_true_eq] at habs ⊢
      rw [List.head?_append, habs]
      rfl
    refine ⟨hstored, ?_⟩
    rw [hstored, List.append_cancel_left_eq, Path.shown_eq_self_iff]
  case unreadHome =>
    rintro h rest rfl hrest rfl htext
    have hstored : (new (some h) cwd (Path.tilde :: rest)).path =
        cwd.join (Path.shown (Path.tilde :: rest)) := by
      rw [new, Path.expand_of_unread_home htext]
    refine ⟨hstored, ?_⟩
    intro hcwd heq
    -- the directory it was named in and what is shown are texts, the home directory is none
    have hnone : (decode? (h ++ rest)).isSome = false := by
      rw [Bool.eq_false_iff, Ne, isSome_decode?_append_iff hrest, htext]
      simp
    have hshown := Path.isSome_decode?_shown (Path.tilde :: rest)
    rw [← heq, hstored] at hnone
    by_cases hdir : cwd = []
    · subst hdir
      have hjoin : Path.join [] (Path.shown (Path.tilde :: rest)) =
          Path.shown (Path.tilde :: rest) := by
        simp [Path.join]
      rw [hjoin, hshown] at hnone
      cases hnone
    · rw [(Path.isSome_decode?_join_iff hdir hshown).mpr (.inr hcwd)] at hnone
      cases hnone

/-- The path of two bytes that names a file at the root is stored as one of four bytes. -/
theorem unread_not_kept :
    Path.isAbsolute [0x2F, 0xFF] = true ∧
      (new none [Path.slash] [0x2F, 0xFF]).path = [0x2F, 0xEF, 0xBF, 0xBD] ∧
      (new none [Path.slash] [0x2F, 0xFF]).path ≠ [0x2F, 0xFF] := by
  decide +kernel

end LogFile
end LineKeeper
