import Mathlib.Data.List.Basic
import LineKeeper.Host
import LineKeeper.Proofs.Paths

/-!
# Where a log is opened

The file of a log is opened twice, at the path that is stored and at that path's expansion.
The stored path is absolute, so a tilde in it is not at its front, and the expansion changes it
only where it is not the path of a text.  That is decided by the directory it was named in:
what the user names is a text by then.

**Servers.**  A server that is started in the background opens its log before anything else, and
writes to the file that it has opened (`Reopens.starts`).

**Trees.**  A file that is opened a second time is there, and so are the directories above it
(`openAt_again`).  Whatever is put at a place where nothing stood is in no one's way
(`walk_put`).

**Results.**
* `FileTree.makeDirectories_again`: directories that were made are not made again.
* `LogFile.stored_reopens`: when a server opens the file that was checked.
-/

namespace LineKeeper

namespace FileTree

variable {t t' : FileTree} {place origin goal : List (List UInt8)} {node : FileNode} {p : Path}
  {n : Nat}

section Walks

theorem lookup_put_self (hplace : place ≠ []) : (t.put place node).lookup place = some node := by
  have hnone : (t.entries.filter (·.1 ≠ place)).find? (·.1 = place) = none := by
    simp [List.find?_eq_none]
  rw [lookup, if_neg hplace, put, List.find?_append, hnone]
  simp

theorem lookup_put_of_ne {other : List (List UInt8)} (h : other ≠ place) :
    (t.put place node).lookup other = t.lookup other := by
  have hfind : (t.entries.filter (·.1 ≠ place)).find? (·.1 = other) =
      t.entries.find? (·.1 = other) := by
    rw [List.find?_filter]
    congr 1
    funext e
    by_cases he : e.1 = other <;> simp [he, h]
  simp only [lookup, put, List.find?_append, hfind]
  simp [Ne.symm h]

/-- A way goes on from where its first part leads. -/
theorem walk_append (t : FileTree) (origin xs ys : List (List UInt8)) :
    t.walk origin (xs ++ ys) = t.walk origin xs >>= fun dir => t.walk dir ys := by
  induction xs generalizing origin with
  | nil => rfl
  | cons x xs ih =>
      simp only [List.cons_append, walk]
      split_ifs
      · exact ih _
      · exact ih _
      · rfl
      · split
        · exact ih _
        · rfl
        · rfl

/-- What is put where nothing stood bars no way. -/
theorem walk_put {parts : List (List UInt8)} (hfree : t.lookup place = none)
    (h : t.walk origin parts = .ok goal) : (t.put place node).walk origin parts = .ok goal := by
  induction parts generalizing origin with
  | nil => exact h
  | cons part parts ih =>
      simp only [walk] at h ⊢
      split_ifs at h ⊢ with hhere hup hlong
      · exact ih h
      · exact ih h
      · split at h
        · next hdir =>
            have hne : origin ++ [part] ≠ place := by
              rintro rfl
              rw [hfree] at hdir
              cases hdir
            rw [lookup_put_of_ne hne, hdir]
            exact ih h
        · cases h
        · cases h

end Walks

section Directories

/-- What a directory that can be walked to says of its path. -/
theorem isDirectory_iff : t.isDirectory p = true ↔
    checkPath p = .ok () ∧ ∃ place, t.walk [] p.parts = .ok place := by
  rw [isDirectory]
  cases hcheck : checkPath p with
  | error f => simp
  | ok u =>
      cases hwalk : t.walk [] p.parts with
      | error e => simp
      | ok place => simp

/-- What is asked of a path before anything stands at its end. -/
theorem locate_eq_ok {found : List (List UInt8) × Option (List UInt8)}
    (h : t.locate p = .ok found) :
    checkPath p = .ok () ∧ t.walk [] p.parts.dropLast = .ok found.1 ∧
      p.parts.getLast? = found.2 := by
  simp only [locate, bind, Except.bind] at h
  cases hcheck : checkPath p with
  | error f => rw [hcheck] at h; cases h
  | ok u =>
      rw [hcheck] at h
      cases hwalk : t.walk [] p.parts.dropLast with
      | error e => rw [hwalk] at h; cases h
      | ok place =>
          rw [hwalk] at h
          cases h
          exact ⟨rfl, rfl, rfl⟩

theorem locate_of_walk (hcheck : checkPath p = .ok ())
    (hwalk : t.walk [] p.parts.dropLast = .ok place) :
    t.locate p = .ok (place, p.parts.getLast?) := by
  simp [locate, hcheck, hwalk, bind, Except.bind, pure, Except.pure]

/-- What is put where nothing stood leaves a directory in its place. -/
theorem isDirectory_put (hfree : t.lookup place = none) (h : t.isDirectory p = true) :
    (t.put place node).isDirectory p = true := by
  obtain ⟨hcheck, place, hwalk⟩ := isDirectory_iff.mp h
  exact isDirectory_iff.mpr ⟨hcheck, place, walk_put hfree hwalk⟩

/-- A directory that was made can be walked to. -/
theorem isDirectory_of_makeDirectory (h : t.makeDirectory p = .ok t') :
    t'.isDirectory p = true := by
  simp only [makeDirectory, bind, Except.bind] at h
  cases hlocate : t.locate p with
  | error f => rw [hlocate] at h; cases h
  | ok found =>
      obtain ⟨above, last⟩ := found
      obtain ⟨hcheck, hwalk, hlast⟩ := locate_eq_ok hlocate
      rw [hlocate] at h
      cases last with
      | none => cases h
      | some part =>
          simp only at h
          split_ifs at h with hdots hlong
          split at h
          · cases h
          · next hfree =>
              cases h
              obtain ⟨hhere, hup⟩ := not_or.mp hdots
              refine isDirectory_iff.mpr ⟨hcheck, above ++ [part], ?_⟩
              have hself := @lookup_put_self t (above ++ [part]) .directory (by simp)
              rw [← List.dropLast_append_getLast? part hlast, walk_append, walk_put hfree hwalk]
              simp [walk, hhere, hup, hlong, hself, bind, Except.bind]

/-- A directory that is there cannot be made. -/
theorem makeDirectory_of_isDirectory (h : t.isDirectory p = true) :
    t.makeDirectory p = .error (.system Errno.fileExists) := by
  obtain ⟨hcheck, place, hwalk⟩ := isDirectory_iff.mp h
  cases hlast : p.parts.getLast? with
  | none =>
      have hnil : p.parts = [] := List.getLast?_eq_none_iff.mp hlast
      have hlocate : t.locate p = .ok ([], p.parts.getLast?) :=
        locate_of_walk hcheck (by rw [hnil]; rfl)
      simp [makeDirectory, hlocate, hlast, bind, Except.bind, throw, throwThe, MonadExceptOf.throw]
  | some part =>
      rw [← List.dropLast_append_getLast? part hlast, walk_append] at hwalk
      cases habove : t.walk [] p.parts.dropLast with
      | error e => rw [habove] at hwalk; cases hwalk
      | ok above =>
          rw [habove] at hwalk
          have hlocate := locate_of_walk hcheck habove
          simp only [makeDirectory, hlocate, hlast, bind, Except.bind]
          by_cases hdots : part = here ∨ part = up
          · rw [if_pos hdots]
            rfl
          · obtain ⟨hhere, hup⟩ := not_or.mp hdots
            simp only [bind, Except.bind, walk, if_neg hhere, if_neg hup] at hwalk
            split_ifs at hwalk with hlong
            rw [if_neg hdots, if_neg hlong]
            split at hwalk
            · next hdir =>
                rw [hdir]
                rfl
            · cases hwalk
            · cases hwalk

/-- Directories that were made can be walked to. -/
theorem isDirectory_of_makeDirectories (h : t.makeDirectories p n = (.ok (), t')) :
    p = [] ∨ t'.isDirectory p = true := by
  cases n with
  | zero => cases h
  | succ n =>
      rw [makeDirectories] at h
      by_cases hempty : p = []
      · exact .inl hempty
      · right
        rw [if_neg (by simpa using hempty)] at h
        cases hmade : t.makeDirectory p with
        | ok made =>
            rw [hmade] at h
            cases h
            exact isDirectory_of_makeDirectory hmade
        | error e =>
            rw [hmade] at h
            dsimp only at h
            split at h
            · -- those above it are made first, then the directory is tried again
              split at h
              · cases h
              · split at h
                · cases h
                · split at h
                  · next hmade =>
                      cases h
                      exact isDirectory_of_makeDirectory hmade
                  · split at h
                    · next hdir =>
                        cases h
                        exact hdir
                    · cases h
            · split at h
              · next hdir =>
                  cases h
                  exact hdir
              · cases h

/-- Directories that were made are not made again. -/
theorem makeDirectories_again (h : p = [] ∨ t.isDirectory p = true) (n : Nat) :
    t.makeDirectories p (n + 1) = (.ok (), t) := by
  rcases h with rfl | hdir
  · rfl
  · have hexists := makeDirectory_of_isDirectory hdir
    simp [makeDirectories, hexists, hdir, Errno.fileExists, Errno.noEntry]

end Directories

section Files

/-- A file that is opened stands at its place, and was put there if it was missing. -/
theorem openFile_eq_ok (h : t.openFile p = .ok (place, t')) :
    t' = t ∨ t.lookup place = none ∧ t' = t.put place (.file "") := by
  simp only [openFile, bind, Except.bind] at h
  cases hlocate : t.locate p with
  | error f => rw [hlocate] at h; cases h
  | ok found =>
      obtain ⟨above, last⟩ := found
      rw [hlocate] at h
      cases last with
      | none => cases h
      | some part =>
          simp only at h
          split_ifs at h with hdots hlong
          split at h
          · cases h
          · cases h
            exact .inl rfl
          · next hfree =>
              cases h
              exact .inr ⟨hfree, rfl⟩

/-- A file that was opened is found where it is. -/
theorem openFile_again (h : t.openFile p = .ok (place, t')) : t'.openFile p = .ok (place, t') := by
  rcases openFile_eq_ok h with rfl | ⟨hfree, rfl⟩
  · exact h
  · simp only [openFile, bind, Except.bind] at h ⊢
    cases hlocate : t.locate p with
    | error f => rw [hlocate] at h; cases h
    | ok found =>
        obtain ⟨above, last⟩ := found
        obtain ⟨hcheck, hwalk, hlast⟩ := locate_eq_ok hlocate
        rw [hlocate] at h
        rw [locate_of_walk hcheck (walk_put hfree hwalk), hlast]
        cases last with
        | none => cases h
        | some part =>
            simp only at h ⊢
            split_ifs at h ⊢ with hdots hlong
            split at h
            · cases h
            · next hfile =>
                have hplace : above ++ [part] = place := congrArg Prod.fst (Except.ok.inj h)
                rw [hplace, hfree] at hfile
                cases hfile
            · cases h
              rw [lookup_put_self (by simp)]
              rfl

end Files

end FileTree

namespace LogFile

variable {t t' : FileTree} {place : List (List UInt8)} {home home' : Option Path} {cwd path : Path}

/-- What a file's place is opened with. -/
theorem openAt_eq_ok (h : openAt t path = (.ok place, t')) :
    ∃ t₁, t₁.openFile path = .ok (place, t') ∧
      ∀ above, path.parent? = some above →
        t.makeDirectories above (above.length + 1) = (.ok (), t₁) := by
  rw [openAt] at h
  cases hparent : path.parent? with
  | none =>
      rw [hparent] at h
      dsimp only at h
      split at h
      · cases h
      · next hopen =>
          cases h
          exact ⟨t, hopen, nofun⟩
  | some above =>
      rw [hparent] at h
      dsimp only at h
      split at h
      · cases h
      · next hmade =>
          split at h
          · cases h
          · next hopen =>
              cases h
              refine ⟨_, hopen, ?_⟩
              rintro _ ⟨⟩
              exact Prod.ext hmade rfl

/-- A file that was opened is opened again, and nothing is made for it. -/
theorem openAt_again (h : openAt t path = (.ok place, t')) : openAt t' path = (.ok place, t') := by
  obtain ⟨t₁, hopen, hmade⟩ := openAt_eq_ok h
  have hagain := FileTree.openFile_again hopen
  cases hparent : path.parent? with
  | none => simp [openAt, hparent, hagain]
  | some above =>
      have hdir : above = [] ∨ t'.isDirectory above = true := by
        refine (FileTree.isDirectory_of_makeDirectories (hmade above hparent)).imp_right ?_
        intro hdir
        rcases FileTree.openFile_eq_ok hopen with rfl | ⟨hfree, rfl⟩
        · exact hdir
        · exact FileTree.isDirectory_put hfree hdir
      simp [openAt, hparent, FileTree.makeDirectories_again hdir, hagain]

/-- The server opens the file of a log that was checked: it opens what the check opens, with the
same result, and once a file has been opened it is the one that is opened from then on.  So a server
that is started in the background writes to the file that was checked. -/
structure Reopens (l : LogFile) (home : Option Path) : Prop where
  checked : ∀ t, l.prepare t = ((l.init home t).1.map fun _ => (), (l.init home t).2)
  same : l.rotate = false → ∀ t, l.init home t = openAt t l.path
  again : ∀ t t' place, l.init home t = (.ok place, t') → l.init home t' = (.ok place, t')
  starts : ∀ t (h : Host) (caller : Caller) (config : ClientConfig),
    caller.home? = home → config.logFile = some l → l.prepare t = (.ok (), h.site.files) →
    ∃ place, openAt t l.path = (.ok place, h.site.files) ∧
      h.startDetached caller config = h.addServer
        (h.started config.server.idleTimeout (.file place) (Host.filterFor caller .info))

/-- What was checked was opened, and is not to be rotated. -/
theorem openAt_of_prepare {l : LogFile} (h : l.prepare t = (.ok (), t')) :
    l.rotate = false ∧ ∃ place, openAt t l.path = (.ok place, t') := by
  cases hrotate : l.rotate with
  | true => simp [prepare, hrotate] at h
  | false =>
      refine ⟨rfl, ?_⟩
      cases hopen : openAt t l.path with
      | mk opened t₁ =>
          cases opened with
          | error e => simp [prepare, hrotate, hopen, Except.map] at h
          | ok place =>
              simp only [prepare, hrotate, hopen, Bool.false_eq_true, if_false] at h
              exact ⟨place, by rw [(Prod.mk.inj h).2]⟩

/-- A stored path that the expansion leaves is opened in both places. -/
theorem reopens_of_expand_eq {l : LogFile} (h : l.path.expand home = l.path) : Reopens l home := by
  have hsame : l.rotate = false → ∀ t, l.init home t = openAt t l.path := by
    intro hrotate t
    simp [init, hrotate, h]
  constructor
  case checked =>
    intro t
    cases hrotate : l.rotate <;> simp [prepare, init, hrotate, h, Except.map]
  case same => exact hsame
  case again =>
    intro t t' place hopen
    cases hrotate : l.rotate with
    | true => simp [init, hrotate] at hopen
    | false =>
        rw [hsame hrotate] at hopen ⊢
        exact openAt_again hopen
  case starts =>
    intro t h caller config hhome hlog hchecked
    obtain ⟨hrotate, place, hopen⟩ := openAt_of_prepare hchecked
    have hinit : l.init caller.home? h.site.files = (.ok place, h.site.files) := by
      rw [hhome, hsame hrotate]
      exact openAt_again hopen
    exact ⟨place, hopen, by simp only [Host.startDetached, hlog, hinit]⟩

/-- **The server opens the log that was checked**, if its path was named in a directory whose own
path is a text, or begins at the root or at a home directory. -/
theorem stored_reopens {home : Option Path} {cwd path : Path} (hcwd : cwd.isAbsolute = true) :
    (new home cwd path).path.isAbsolute = true ∧
    ∀ home',
      ((new home cwd path).path.expand home' = (new home cwd path).path ↔
        (path.expand home).isAbsolute = true ∨ (Text.Utf8.decode? cwd).isSome = true) ∧
      ((path.expand home).isAbsolute = true ∨ (Text.Utf8.decode? cwd).isSome = true →
        ∀ rotate, Reopens ((new home cwd path).rotating rotate) home') := by
  have habs : (new home cwd path).path.isAbsolute = true := isAbsolute_path_new hcwd
  have hne : cwd ≠ [] := by
    rintro rfl
    simp [Path.isAbsolute] at hcwd
  have htext : (Text.Utf8.decode? (path.expand home)).isSome = true := by
    rw [Path.expand, Path.ofString, Text.Utf8.decode?_encode]
    rfl
  have hkept : ∀ home', (new home cwd path).path.expand home' = (new home cwd path).path ↔
      (path.expand home).isAbsolute = true ∨ (Text.Utf8.decode? cwd).isSome = true := by
    intro home'
    rw [Path.expand_eq_self_iff habs]
    exact Path.isSome_decode?_join_iff hne htext
  refine ⟨habs, fun home' => ⟨hkept home', ?_⟩⟩
  intro hcase rotate
  exact reopens_of_expand_eq ((hkept home').mpr hcase)

/-- A log that a user without a home directory names `~/log`, in the directory `/srv/λ`. -/
def distant : LogFile :=
  (new none (Path.ofString "/srv/λ") (Path.ofString "~/log")).rotating false

theorem distant_reopens :
    (Path.ofString "/srv/λ").isAbsolute = true ∧
      distant.path = Path.ofString "/srv/λ/~/log" ∧ Reopens distant none := by
  have habs : (Path.ofString "/srv/λ").isAbsolute = true := by decide +kernel
  have htext : (Text.Utf8.decode? (Path.ofString "/srv/λ")).isSome = true := by
    rw [Path.ofString, Text.Utf8.decode?_encode]
    rfl
  refine ⟨habs, by decide +kernel, ?_⟩
  exact ((stored_reopens habs).2 none).2 (.inr htext) false

/-- The log named `x` in a directory whose name is a byte that is no text. -/
def unread : LogFile :=
  new none [Path.slash, 0xFF] (Path.ofString "x")

/-- The tree with that directory. -/
def unreadTree : FileTree :=
  ⟨[([[0xFF]], .directory)]⟩

/-- The check makes the file in that directory, and the server makes and opens another one. -/
theorem unread_moves :
    (openAt unreadTree unread.path).1.toOption = some [[0xFF], [0x78]] ∧
      (unread.prepare unreadTree).1.isOk = true ∧
      (unread.init none (unread.prepare unreadTree).2).1.toOption =
        some [Text.Utf8.encode "\uFFFD", [0x78]] := by
  decide +kernel

end LogFile

end LineKeeper
